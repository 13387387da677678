import FlowSketch.Proofs.Cst.Failing
import FlowSketch.Proofs.Cst.Nesting
import FlowSketch.Proofs.Metrics.Figures
import FlowSketch.Service

/-!
# Two requests on one source

A source can be drawn and it can be measured, and both begin with reading it. Whatever keeps it from
being read is answered alike. What has been read is always measured, and it is drawn unless an
expression stands in the place of a statement on the first level beyond the limit: reading passes
over such an expression, drawing counts it.

* `Service.Overhanging` — a source that is read and has such an expression.
* `Service.trouble` — what a record tells of a failure.

Results:

* `Service.outcome_generate`, `Service.outcome_analyze`: the replies, told by their two steps.
* `Service.replies_agree`: the guard of each request, and how their replies agree.
* `Service.bracedBreak_not_drawn`: a source that is read and measured but not drawn.
-/

namespace FlowSketch

/-- The record of the reply says that there is no flowchart. -/
def FlowchartReply.IsError (reply : FlowchartReply) : Prop :=
  reply.toJson.member? "error" = some (.bool true)

/-- The record of the reply says that there are no figures. -/
def AnalysisReply.IsFailure (reply : AnalysisReply) : Prop :=
  reply.toJson.member? "success" = some (.bool false)

namespace Service

/-- What a record tells of a failure: its type, its wording and its place in the source. -/
def trouble (record : Json) : List (Option Json) :=
  ["type", "details", "line", "column"].map record.member?

/-- The source is read within the limit, and an expression stands in the place of a statement on the
    first level beyond it. -/
def Overhanging (grammar : String → Cst) (limit : Int) (source : String) : Prop :=
  (∃ tree, (Cst.parse grammar limit source).outcome = .ok tree) ∧
    (grammar source).overhangs (limit + 1).toNat = true

/-! ## Reading -/

section

variable {grammar : String → Cst} {limit : Int} {source : String} {tree : Ast}

theorem isEmpty_eq_false_of_parse (h : (Cst.parse grammar limit source).outcome = .ok tree) :
    source.isEmpty = false := by
  have hblank := (Cst.ast_of_parse h).1
  rw [← Bool.not_eq_true, String.isEmpty_iff]
  rintro rfl
  exact absurd hblank (by decide)

/-- What has been read reaches the first level beyond the limit exactly where an expression
    overhangs. -/
theorem reaches_of_parse (h : (Cst.parse grammar limit source).outcome = .ok tree) :
    tree.reaches (limit + 1).toNat = (grammar source).overhangs (limit + 1).toNat :=
  (Cst.reaches_of_astAt (Cst.ast_of_parse h).2).1

/-- What has been read is drawn unless an expression overhangs. -/
theorem outcome_ofAst_of_parse (h : (Cst.parse grammar limit source).outcome = .ok tree) :
    ((∃ chart, (Flowchart.ofAst limit tree).outcome = .ok chart) ↔
      (grammar source).overhangs (limit + 1).toNat = false) ∧
    ((grammar source).overhangs (limit + 1).toNat = true →
      (Flowchart.ofAst limit tree).outcome = .error (.tooDeep (limit + 1).toNat limit)) := by
  rw [Flowchart.outcome_ofAst, reaches_of_parse h]
  cases (grammar source).overhangs (limit + 1).toNat <;> simp

end

/-! ## Replies -/

section

variable (grammar : String → Cst) (settings : Settings)

theorem outcome_generate {source : String} (hs : source.isEmpty = false) :
    (generate grammar settings (some source)).outcome =
      .ok (match (Cst.parse grammar settings.depthLimit source).outcome.bind
          (fun root => (Flowchart.ofAst settings.depthLimit root).outcome) with
        | .ok chart => .drawn chart (chart.mermaid settings.direction settings.labelLimit)
        | .error failure => .failed failure) := by
  simp only [generate, Option.filter, hs, Bool.not_false, if_true, Report.outcome_bind,
    Report.settle]
  cases (Cst.parse grammar settings.depthLimit source).outcome.bind
    (fun root => (Flowchart.ofAst settings.depthLimit root).outcome) <;> rfl

theorem outcome_analyze {source : String} (hs : source.isEmpty = false) :
    (analyze grammar settings (some source)).outcome =
      match (Cst.parse grammar settings.depthLimit source).outcome.bind
          (fun root => (Metrics.analyze (some root) source).outcome) with
        | .ok m => .ok (.done m)
        | .error .averageOutOfRange => .error .averageOutOfRange
        | .error failure => .ok (.failed failure) := by
  simp only [analyze, Option.filter, hs, Bool.not_false, if_true, Report.outcome_bind,
    Report.settle]
  cases (Cst.parse grammar settings.depthLimit source).outcome.bind
    (fun root => (Metrics.analyze (some root) source).outcome) with
  | ok m => rfl
  | error failure => cases failure <;> rfl

end

/-- Both records tell a failure alike. -/
theorem trouble_failed (failure : Failure) :
    trouble (FlowchartReply.failed failure).toJson =
      trouble (AnalysisReply.failed failure).toJson := by
  cases failure <;> rfl

theorem not_isError_drawn (chart : Flowchart) (mermaid : String) :
    ¬(FlowchartReply.drawn chart mermaid).IsError := by
  simp [FlowchartReply.IsError, FlowchartReply.toJson, Json.member?]

theorem not_isFailure_done (m : Metrics) : ¬(AnalysisReply.done m).IsFailure := by
  simp [AnalysisReply.IsFailure, AnalysisReply.toJson, Json.member?]

theorem not_overhanging_of_isEmpty {grammar : String → Cst} {limit : Int} {source : String}
    (hs : source.isEmpty = true) : ¬Overhanging grammar limit source := by
  rintro ⟨⟨tree, htree⟩, -⟩
  exact absurd (isEmpty_eq_false_of_parse htree) (by simp [hs])

/-- How the reply to a request for a flowchart agrees with the reply to the request for figures of
    the same code. -/
structure Agree (grammar : String → Cst) (settings : Settings) (code : Option String)
    (drawn : FlowchartReply) : Prop where
  /-- There is no flowchart exactly when there are no figures or an expression overhangs. -/
  error_iff : drawn.IsError ↔
    (∃ figures, (analyze grammar settings code).outcome = .ok figures ∧ figures.IsFailure) ∨
      ∃ source, code = some source ∧ Overhanging grammar settings.depthLimit source
  /-- When there are no figures, both records tell the same failure. -/
  trouble_eq : ∀ figures, (analyze grammar settings code).outcome = .ok figures →
    figures.IsFailure → trouble drawn.toJson = trouble figures.toJson
  /-- Where an expression overhangs, the tree is too deep to be drawn and still measured. -/
  overhanging : ∀ source, code = some source → Overhanging grammar settings.depthLimit source →
    drawn = .failed (.tooDeep (settings.depthLimit + 1).toNat settings.depthLimit) ∧
      ∀ figures, (analyze grammar settings code).outcome = .ok figures → ¬figures.IsFailure

section

variable {grammar : String → Cst} {settings : Settings} {source : String}

theorem agree_of_refused {code : Option String}
    (h : code.filter (fun s => !s.isEmpty) = none) :
    (generate grammar settings code).outcome = .ok .refused ∧
      Agree grammar settings code .refused := by
  have hfigures : (analyze grammar settings code).outcome = .ok .refused := by
    simp only [analyze, h, Report.outcome_pure]
  have hno : ∀ source, code = some source → ¬Overhanging grammar settings.depthLimit source := by
    rintro source rfl
    exact not_overhanging_of_isEmpty (by simpa [Option.filter] using h)
  refine ⟨by simp only [generate, h, Report.outcome_pure], ?_, ?_, ?_⟩
  · exact ⟨fun _ => .inl ⟨_, hfigures, rfl⟩, fun _ => rfl⟩
  · intro figures hf _
    rw [hfigures] at hf
    cases hf
    rfl
  · intro source hcode hover
    exact absurd hover (hno source hcode)

theorem agree_of_unread {failure : Failure} (hs : source.isEmpty = false)
    (h : (Cst.parse grammar settings.depthLimit source).outcome = .error failure) :
    (generate grammar settings (some source)).outcome = .ok (.failed failure) ∧
      Agree grammar settings (some source) (.failed failure) := by
  have hdrawn := outcome_generate grammar settings hs
  have hfigures := outcome_analyze grammar settings hs
  rw [h] at hdrawn hfigures
  have hfailed : (analyze grammar settings (some source)).outcome = .ok (.failed failure) := by
    rw [hfigures]
    rcases Cst.failsOnly_parse _ _ _ failure h with rfl | ⟨_, _, _, rfl, -⟩ | ⟨_, rfl⟩ <;> rfl
  refine ⟨hdrawn, ?_, ?_, ?_⟩
  · exact ⟨fun _ => .inl ⟨_, hfailed, rfl⟩, fun _ => rfl⟩
  · intro figures hf _
    rw [hfailed] at hf
    cases hf
    exact trouble_failed failure
  · rintro _ ⟨rfl⟩ ⟨⟨tree, htree⟩, -⟩
    rw [h] at htree
    exact absurd htree (by simp)

theorem agree_of_read {tree : Ast} (hs : source.isEmpty = false)
    (h : (Cst.parse grammar settings.depthLimit source).outcome = .ok tree) :
    ∃ drawn, (generate grammar settings (some source)).outcome = .ok drawn ∧
      Agree grammar settings (some source) drawn := by
  have hdrawn := outcome_generate grammar settings hs
  have hfigures := outcome_analyze grammar settings hs
  obtain ⟨hchart, hdeep⟩ := outcome_ofAst_of_parse h
  rw [h] at hdrawn hfigures
  simp only [Except.bind] at hdrawn hfigures
  -- what has been read is measured, or the average is out of range
  have hmeasured : ∀ figures, (analyze grammar settings (some source)).outcome = .ok figures →
      ¬figures.IsFailure := by
    intro figures hf
    rw [hfigures] at hf
    cases hm : (Metrics.analyze (some tree) source).outcome with
    | ok m =>
      rw [hm] at hf
      cases hf
      exact not_isFailure_done m
    | error failure =>
      rw [Metrics.eq_averageOutOfRange_of_analyze (Cst.ast_of_parse h).1 hm] at hm
      rw [hm] at hf
      exact absurd hf (by simp)
  have hnone : ¬∃ figures, (analyze grammar settings (some source)).outcome = .ok figures ∧
      figures.IsFailure := fun ⟨figures, hf, hfailure⟩ => hmeasured figures hf hfailure
  cases hover : (grammar source).overhangs (settings.depthLimit + 1).toNat with
  | true =>
    rw [hdeep hover] at hdrawn
    refine ⟨_, hdrawn, ?_, ?_, ?_⟩
    · exact ⟨fun _ => .inr ⟨source, rfl, ⟨tree, h⟩, hover⟩, fun _ => rfl⟩
    · intro figures hf hfailure
      exact absurd hfailure (hmeasured figures hf)
    · exact fun _ _ _ => ⟨rfl, hmeasured⟩
  | false =>
    obtain ⟨chart, hc⟩ := hchart.2 hover
    rw [hc] at hdrawn
    have hno : ¬∃ s, some source = some s ∧ Overhanging grammar settings.depthLimit s := by
      rintro ⟨_, ⟨rfl⟩, -, hcontra⟩
      exact absurd hcontra (by simp [hover])
    refine ⟨_, hdrawn, ?_, ?_, ?_⟩
    · exact ⟨fun herror => absurd herror (not_isError_drawn _ _),
        fun hcontra => (hcontra.elim hnone hno).elim⟩
    · intro figures hf hfailure
      exact absurd hfailure (hmeasured figures hf)
    · intro s hcode hcontra
      exact absurd ⟨s, hcode, hcontra⟩ hno

end

/-- What has been read within a limit is drawn unless an expression stands in the place of a
    statement on the first level beyond the limit, and then the tree is said to be too deep at that
    level. So a request for a flowchart is answered by an error exactly when the request for figures
    is, and both tell the same, except for such a source: it has figures but no flowchart. -/
theorem replies_agree (grammar : String → Cst) (settings : Settings) :
    (∀ limit source tree, 0 ≤ limit → (Cst.parse grammar limit source).outcome = .ok tree →
      ((∃ chart, (Flowchart.ofAst limit tree).outcome = .ok chart) ↔
        (grammar source).overhangs (limit.toNat + 1) = false) ∧
      ((grammar source).overhangs (limit.toNat + 1) = true →
        (Flowchart.ofAst limit tree).outcome = .error (.tooDeep (limit + 1) limit))) ∧
    ∀ code, ∃ drawn, (generate grammar settings code).outcome = .ok drawn ∧
      Agree grammar settings code drawn := by
  constructor
  · intro limit source tree hlimit h
    have hchart := outcome_ofAst_of_parse h
    rwa [Int.toNat_of_nonneg (by omega), Int.toNat_add hlimit (by omega)] at hchart
  · intro code
    cases hcode : code.filter (fun s => !s.isEmpty) with
    | none => exact ⟨_, agree_of_refused hcode⟩
    | some source =>
      obtain ⟨rfl, hs⟩ := Option.filter_eq_some_iff.1 hcode
      have hs : source.isEmpty = false := by simpa using hs
      cases h : (Cst.parse grammar settings.depthLimit source).outcome with
      | error failure => exact ⟨_, agree_of_unread hs h⟩
      | ok tree => exact agree_of_read hs h

/-! ## Braces around a jump -/

/-- A `break;` in braces, so many pairs of them, from the byte `start` on. -/
def bracedBreak : (braces start : Nat) → Cst
  | 0, start => { type := "break_statement", start, stop := start + 6, row := 0, column := start }
  | braces + 1, start =>
    { type := "compound_statement", start, stop := start + 2 * braces + 8, row := 0, column := start
      children := [bracedBreak braces (start + 1)] }

/-- The source with nothing but a `break;` in braces. -/
def bracedUnit (braces : Nat) : Cst :=
  { type := "translation_unit", start := 0, stop := 2 * braces + 6, row := 0, column := 0
    children := [bracedBreak braces 0] }

/-- The text of that source. -/
def bracedText (braces : Nat) : String :=
  String.ofList (List.replicate braces '\x7b' ++ "break;".toList ++ List.replicate braces '\x7d')

theorem filter_bracedBreak (braces start : Nat) :
    ([bracedBreak braces start].filter (·.named)).filter (fun c => !c.isSkipped) =
      [bracedBreak braces start] := by
  cases braces <;> rfl

theorem exists_astAt_bracedBreak (bytes : List UInt8) (limit : Int) {braces budget : Nat}
    (h : braces ≤ budget) (start depth : Nat) :
    ∃ tree, (bracedBreak braces start).astAt bytes limit budget depth = .ok tree := by
  induction braces generalizing budget start depth with
  | zero =>
    have hs : (bracedBreak 0 start).isStatement = false := rfl
    cases budget <;> rw [Cst.astAt, if_neg (by simp [hs]), Cst.expression_eq_exprTree,
      Cst.exprTree_of_not_isStatement _ _ hs] <;> exact ⟨_, rfl⟩
  | succ braces ih =>
    obtain ⟨rest, rfl⟩ := Nat.exists_eq_add_of_le h
    obtain ⟨tree, htree⟩ := ih (Nat.le_add_right braces rest) (start + 1) (depth + 1)
    have hs : (bracedBreak (braces + 1) start).isStatement = true := rfl
    have hform : (bracedBreak (braces + 1) start).form = .block := rfl
    have hcontent : (bracedBreak (braces + 1) start).content = [bracedBreak braces (start + 1)] :=
      filter_bracedBreak braces (start + 1)
    rw [Nat.add_right_comm, Cst.astAt, if_pos hs, Cst.statement, hform]
    simp only [Cst.statements, hcontent, Cst.visitAll, htree]
    exact ⟨_, rfl⟩

/-- Braces within the limit are read, whatever stands in them. -/
theorem exists_parse_bracedUnit {braces limit : Nat} (h : braces ≤ limit) : ∃ tree,
    (Cst.parse (fun _ => bracedUnit braces) limit (bracedText braces)).outcome = .ok tree := by
  obtain ⟨tree, htree⟩ := exists_astAt_bracedBreak (Utf8.encode (bracedText braces)) limit h 0 1
  have hblank : Text.blankOnly (bracedText braces) = false := by
    simp [Text.blankOnly, bracedText, Text.isBlank]
  have hast : (bracedUnit braces).ast (Utf8.encode (bracedText braces)) limit =
      .ok ((bracedUnit braces).node (Utf8.encode (bracedText braces)) .compoundBlock {}
        [tree]) := by
    have hs : (bracedUnit braces).isStatement = true := rfl
    have hform : (bracedUnit braces).form = .block := rfl
    have hcontent : (bracedUnit braces).content = [bracedBreak braces 0] :=
      filter_bracedBreak braces 0
    have hbudget : ((limit : Int) + 1).toNat = limit + 1 := by omega
    rw [Cst.ast, hbudget, Cst.astAt, if_pos hs, Cst.statement, hform]
    simp only [Cst.statements, hcontent, Cst.visitAll, htree]
    rfl
  have hfault : (bracedUnit braces).failure? = none := rfl
  refine ⟨(bracedUnit braces).node (Utf8.encode (bracedText braces)) .compoundBlock {} [tree], ?_⟩
  rw [Cst.parse, if_neg (by simp [hblank])]
  simp only [hfault, hast]
  rfl

theorem overhangs_bracedUnit (braces : Nat) :
    (bracedUnit braces).overhangs (braces + 1) = true := by
  have hbreak : ∀ start, (bracedBreak braces start).overhangs braces = true := by
    induction braces with
    | zero => exact fun _ => rfl
    | succ braces ih =>
      intro start
      have hparts : (bracedBreak (braces + 1) start).flowParts = [bracedBreak braces (start + 1)] :=
        filter_bracedBreak braces (start + 1)
      rw [Cst.overhangs, hparts, List.any_cons, ih, Bool.true_or]
  have hparts : (bracedUnit braces).flowParts = [bracedBreak braces 0] :=
    filter_bracedBreak braces 0
  rw [Cst.overhangs, hparts, List.any_cons, hbreak, Bool.true_or]

/-- A `break;` in two hundred pairs of braces is read within the standard limit and has no flowchart
    there; the request for one is answered by an error, and the request for figures is not. -/
theorem bracedBreak_not_drawn :
    (∃ tree, (Cst.parse (fun _ => bracedUnit 200) 200 (bracedText 200)).outcome = .ok tree ∧
      ¬∃ chart, (Flowchart.ofAst 200 tree).outcome = .ok chart) ∧
    ∃ drawn, (generate (fun _ => bracedUnit 200) {} (some (bracedText 200))).outcome = .ok drawn ∧
      drawn.IsError ∧ ¬∃ figures,
        (analyze (fun _ => bracedUnit 200) {} (some (bracedText 200))).outcome = .ok figures ∧
          figures.IsFailure := by
  have hread : ∃ tree, (Cst.parse (fun _ => bracedUnit 200) 200 (bracedText 200)).outcome =
      .ok tree := exists_parse_bracedUnit (Nat.le_refl 200)
  have hover : Overhanging (fun _ => bracedUnit 200) 200 (bracedText 200) :=
    ⟨hread, overhangs_bracedUnit 200⟩
  obtain ⟨tree, h⟩ := hread
  constructor
  · refine ⟨tree, h, ?_⟩
    rintro ⟨chart, hchart⟩
    rw [(outcome_ofAst_of_parse h).2 hover.2] at hchart
    exact absurd hchart (by simp)
  · have hdefault : (Cst.parse (fun _ => bracedUnit 200) ({} : Settings).depthLimit
        (bracedText 200)).outcome = .ok tree := h
    obtain ⟨drawn, hdrawn, hagree⟩ := agree_of_read (isEmpty_eq_false_of_parse h) hdefault
    refine ⟨drawn, hdrawn, hagree.error_iff.2 (.inr ⟨_, rfl, hover⟩), ?_⟩
    rintro ⟨figures, hfigures, hfailure⟩
    exact (hagree.overhanging _ rfl hover).2 figures hfigures hfailure

/-- In one pair of braces it is drawn where two levels are allowed, and not where one is. -/
theorem replies_agree_bracedBreak :
    (∃ tree, (Cst.parse (fun _ => bracedUnit 1) 2 (bracedText 1)).outcome = .ok tree ∧
      ∃ chart, (Flowchart.ofAst 2 tree).outcome = .ok chart) ∧
    (∃ tree, (Cst.parse (fun _ => bracedUnit 1) 1 (bracedText 1)).outcome = .ok tree ∧
      (Flowchart.ofAst 1 tree).outcome = .error (.tooDeep 2 1)) ∧
    (generate (fun _ => bracedUnit 1) { depthLimit := 1 } (some (bracedText 1))).outcome =
      .ok (.failed (.tooDeep 2 1)) := by
  have hread := exists_parse_bracedUnit (Nat.le_refl 1)
  have hover : Overhanging (fun _ => bracedUnit 1) 1 (bracedText 1) :=
    ⟨hread, overhangs_bracedUnit 1⟩
  obtain ⟨hlimits, hcodes⟩ := replies_agree (fun _ => bracedUnit 1) { depthLimit := 1 }
  refine ⟨?_, ?_, ?_⟩
  · obtain ⟨tree, h⟩ := exists_parse_bracedUnit (Nat.le_succ 1)
    exact ⟨tree, h, (hlimits 2 _ tree (by decide) h).1.2 rfl⟩
  · obtain ⟨tree, h⟩ := hread
    exact ⟨tree, h, (hlimits 1 _ tree (by decide) h).2 hover.2⟩
  · obtain ⟨drawn, hdrawn, hagree⟩ := hcodes (some (bracedText 1))
    rw [hdrawn, (hagree.overhanging _ rfl hover).1]
    rfl

end Service

end FlowSketch
