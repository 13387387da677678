import FlowSketch.Proofs.Chart.Builder
import FlowSketch.Proofs.Chart.Layout

/-!
# Filters without work

While a flowchart is built, an edge that is there already would be passed over, and an exit that is
listed twice would be listed once. Neither happens for any tree: every exit is led somewhere once,
so that every edge is new when it is made, and the sides of a branch have no exit in common. So a
builder without these filters draws the same.

* `Recorded.Shows` — a record of a layout in which there was nothing to filter out.

Results:

* `Canvas.faithful_unfiltered`, `Canvas.faithful_recording`: a draft without filters takes what is
  new as it comes, and so does one with a record.
* `Canvas.Faithful.build_eq_ok`: a canvas that takes what is new shows the usual flowchart.
* `Flowchart.filters_idle`: no filter of a builder ever has anything to do.
-/

namespace FlowSketch

namespace Canvas

/-! ## Drafts without filters and with a record -/

theorem faithful_unfiltered : unfiltered.Faithful (· = ·) where
  draft_eq h := h
  blank := rfl
  addNode kind label h := congrArg (Draft.addNode · kind label) h
  addEdge h _ := by
    subst h
    simp [unfiltered, Draft.grow]
  distinct h _ := ⟨_, rfl, h⟩

/-- A record of a layout that made the draft, in which there was nothing to filter out: the edges of
    the draft are all those that went through the filter, in this order. -/
structure Recorded.Shows (r : Recorded) (d : Draft) : Prop where
  draft_eq : r.draft = d
  isNew : ∀ a ∈ r.attempts, a.IsNew
  edges_eq : r.attempts.filterMap Attempt.edge? = d.edges

theorem faithful_recording : recording.Faithful Recorded.Shows where
  draft_eq h := h.draft_eq
  blank := ⟨rfl, by simp [recording], rfl⟩
  addNode kind label h := ⟨congrArg (Draft.addNode · kind label) h.draft_eq, h.isNew, h.edges_eq⟩
  addEdge {r d e} h hnew := by
    obtain ⟨rfl, hold, hedges⟩ := h
    refine ⟨Draft.addEdge_eq_grow hnew, ?_, ?_⟩
    · intro a ha
      rcases List.mem_append.1 ha with ha | ha
      · exact hold a ha
      · rw [List.mem_singleton.1 ha]
        exact hnew
    · show (r.attempts ++ [Attempt.edge r.draft.edges e]).filterMap Attempt.edge? =
        r.draft.edges ++ [e]
      rw [List.filterMap_append, hedges]
      rfl
  distinct {r d exits} h hnodup := by
    refine ⟨{ r with attempts := r.attempts ++ [.exits exits] },
      congrArg (Prod.mk _) (Fragment.distinct_eq_self hnodup), h.draft_eq, ?_, ?_⟩
    · intro a ha
      rcases List.mem_append.1 ha with ha | ha
      · exact h.isNew a ha
      · rw [List.mem_singleton.1 ha]
        exact hnodup
    · rw [List.filterMap_append, h.edges_eq]
      exact List.append_nil _

/-! ## Builds -/

/-- A canvas that takes what is new shows the usual flowchart. -/
theorem Faithful.build_eq_ok {δ : Type} {C : Canvas δ} {Shows : δ → Draft → Prop}
    (hC : C.Faithful Shows) {limit : Int} {root : Ast} {chart : Flowchart}
    (h : (Flowchart.ofAst limit root).outcome = .ok chart) :
    ∃ c, C.build limit root = .ok (chart, c) ∧ Shows c ⟨chart.nodes, chart.edges⟩ := by
  obtain ⟨program, hprogram, hchart⟩ := Report.outcome_bind_eq_ok_iff.1 h
  obtain ⟨c, hlay, hc⟩ := hC.drawsRegion program hC.blank .empty
  have hlay' : program.lay {} = _ := program.laysRegion {} .empty
  have hofProgram : chart = Flowchart.ofProgram program
      ((root.outline limit).events.filterMap Event.malformed?) := by
    rw [Report.outcome_bind_eq_ok_iff] at hchart
    obtain ⟨_, -, hpure⟩ := hchart
    exact (Except.ok.inj hpure).symm
  subst hofProgram
  refine ⟨c, ?_, ?_⟩
  · simp only [build, hprogram, Except.map, hlay, Canvas.chart, hC.draft_eq hc,
      Flowchart.ofProgram, hlay']
  · simpa only [Flowchart.ofProgram, hlay'] using hc

end Canvas

/-- Whenever a builder draws a tree, every edge that goes through its filter is new at that moment,
    and every list of exits that goes through the other one has no repetition. The edges that it
    draws are all that went through the filter, and a builder without filters draws the same. -/
theorem Flowchart.filters_idle (b : Builder) {root : Ast} {chart : Flowchart}
    (h : (b.build (some root)).1.outcome = .ok chart) :
    (∃ record, Canvas.recording.build b.limit root = .ok (chart, record) ∧
      (∀ a ∈ record.attempts, a.IsNew) ∧
      record.attempts.filterMap Canvas.Attempt.edge? = chart.edges) ∧
    ∃ draft, Canvas.unfiltered.build b.limit root = .ok (chart, draft) := by
  rw [Builder.build_eq] at h
  obtain ⟨record, hrecord, hshows⟩ := Canvas.faithful_recording.build_eq_ok h
  obtain ⟨draft, hdraft, -⟩ := Canvas.faithful_unfiltered.build_eq_ok h
  exact ⟨⟨record, hrecord, hshows.isNew, hshows.edges_eq⟩, draft, hdraft⟩

/-- In `while (c) { if (a) x(); }` both the call and the skipped branch lead back to the header, and
    go through the filter by edges of their own. -/
theorem Flowchart.filters_idle_skippingLoop :
    let branch : Ast := Ast.ofParts .ifStmt "if (a) x();" 1 none
      { condition := some { kind := .other, text := "a" }
        body := some { kind := .call, text := "x();", name := some "x" } } []
    let root : Ast := Ast.ofParts .whileLoop "while (c)" 1 none
      { condition := some { kind := .other, text := "c" }, body := some branch } []
    let chart : Flowchart :=
      { nodes := [⟨0, .whileLoop, "c"⟩, ⟨1, .branch, "a"⟩, ⟨2, .call, "x();"⟩]
        edges := [⟨1, 2, .yes⟩, ⟨0, 1, .body⟩, ⟨2, 0, .loop⟩, ⟨1, 0, .no⟩]
        entry := some 0 }
    (({ limit := 200 } : Builder).build (some root)).1.outcome = .ok chart ∧
      (∃ record, Canvas.recording.build 200 root = .ok (chart, record) ∧
        (∀ a ∈ record.attempts, a.IsNew) ∧
        record.attempts.filterMap Canvas.Attempt.edge? = chart.edges) ∧
      ∃ draft, Canvas.unfiltered.build 200 root = .ok (chart, draft) := by
  intro branch root chart
  have hchart : (({ limit := 200 } : Builder).build (some root)).1.outcome = .ok chart := by
    rw [Builder.build_eq]
    rfl
  exact ⟨hchart, Flowchart.filters_idle _ hchart⟩

end FlowSketch
