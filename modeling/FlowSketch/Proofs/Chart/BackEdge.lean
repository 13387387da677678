import FlowSketch.Proofs.Chart.Exits

/-!
# Edges back to a header

A loop has an edge back to its header unless control gets stuck in its body, which happens where
a function definition itself stands in a slot: such a body has an entry and no exits.

* `Fragment.isStuck` — a fragment with an entry and no exits.
* `Stmt.draws`, `Stmt.isStuck` — the statements that have an entry, and those that are stuck.
* `Ast.HasBackEdge` — an edge goes back to the header of a visited loop.

Results:

* `Stmt.isStuck_region`: a region is stuck exactly when its statement is.
* `Ast.isStuck_bodyFragment`: the same of the fragments that are laid out.
* `Flowchart.hasBackEdge_iff`: a visited loop has an edge back exactly when its body is not stuck.
-/

namespace FlowSketch

/-! ## Stuck statements -/

/-- Control that enters the fragment does not leave it. -/
def Fragment.isStuck (part : Fragment) : Bool := part.entry.isSome && part.exits.isEmpty

theorem Fragment.exits_ne_nil {part : Fragment} {id : Int} (h : part.isStuck = false)
    (he : part.entry = some id) : part.exits ≠ [] := by
  simpa [isStuck, he] using h

namespace Stmt

mutual

/-- The statement has an entry. -/
def draws : Stmt → Bool
  | .block stmts => drawsAny stmts
  | _ => true

/-- Some of the members of a block has an entry that control does not pass by. -/
def drawsAny : List Stmt → Bool
  | [] => false
  | s :: rest => (!s.isFunction && s.draws) || drawsAny rest

end

mutual

/-- Control that enters the statement does not leave it. -/
def isStuck : Stmt → Bool
  | .step .. => false
  | .block stmts => endsStuck stmts
  | .branch _ yes no => yes.isStuck && no.isStuck
  | .loop .. => false
  | .function .. => true

/-- The last member of a block that has an entry is stuck. -/
def endsStuck : List Stmt → Bool
  | [] => false
  | s :: rest => if drawsAny rest then endsStuck rest else !s.isFunction && s.isStuck

end

end Stmt

namespace Region

variable {r s : Region} {start : Int}

theorem isSome_entry_seq (r s : Region) :
    (r.seq s).entry.isSome = (r.entry.isSome || s.entry.isSome) := by
  cases hr : r.entry <;> simp [seq, hr]

/-- A sequence is stuck if its last part with an entry is. -/
theorem isStuck_seq (r s : Region) : (r.seq s).toFragment.isStuck =
    if s.entry.isSome then s.toFragment.isStuck else r.toFragment.isStuck := by
  unfold Fragment.isStuck
  rw [isSome_entry_seq]
  cases hs : s.entry with
  | none => simp [seq, hs]
  | some id => simp [seq, hs]

theorem isEmpty_exitsFrom (r : Region) (start : Int) (label : EdgeLabel) :
    (r.exitsFrom start label).isEmpty = r.toFragment.isStuck := by
  unfold exitsFrom Fragment.isStuck
  cases r.entry <;> simp

/-- A branch is stuck if both of its sides are. -/
theorem isStuck_branch (start : Int) (label : String) (yes no : Region) :
    (branch start label yes no).toFragment.isStuck =
      (yes.toFragment.isStuck && no.toFragment.isStuck) := by
  rw [← isEmpty_exitsFrom yes start .yes, ← isEmpty_exitsFrom no start .no]
  show (yes.exitsFrom start .yes ++ no.exitsFrom start .no).isEmpty = _
  cases yes.exitsFrom start .yes <;> rfl

end Region

namespace Stmt

theorem isSome_entry_member (s : Stmt) (i : Int) :
    (s.member i).entry.isSome = (!s.isFunction && (s.region i).entry.isSome) := by
  unfold member
  cases s.isFunction <;> simp [Region.detached]

theorem isStuck_member (s : Stmt) (i : Int) :
    (s.member i).toFragment.isStuck = (!s.isFunction && (s.region i).toFragment.isStuck) := by
  unfold member
  cases s.isFunction <;> simp [Region.detached, Fragment.isStuck]

/-- A block leaves through its last member that has an entry, or else as it was entered. -/
theorem fragment_regionAll {stmts : List Stmt}
    (hs : ∀ s ∈ stmts, ∀ i, (s.region i).entry.isSome = s.draws ∧
      (s.region i).toFragment.isStuck = s.isStuck) (before : Region) :
    (regionAll stmts before).entry.isSome = (before.entry.isSome || drawsAny stmts) ∧
      (regionAll stmts before).toFragment.isStuck =
        if drawsAny stmts then endsStuck stmts else before.toFragment.isStuck := by
  induction stmts generalizing before with
  | nil => simp [regionAll, drawsAny]
  | cons s stmts ih =>
    obtain ⟨hdraws, hstuck⟩ := hs s (List.mem_cons_self ..) before.stop
    obtain ⟨h1, h2⟩ := ih (fun t ht => hs t (List.mem_cons_of_mem s ht))
      (before.seq (s.member before.stop))
    rw [regionAll_cons, h1, h2, drawsAny, endsStuck, Region.isSome_entry_seq, Region.isStuck_seq,
      isSome_entry_member, isStuck_member, hdraws, hstuck]
    refine ⟨Bool.or_assoc .., ?_⟩
    cases drawsAny stmts <;> simp

theorem endsStuck_of_not_drawsAny {stmts : List Stmt}
    (hs : ∀ s ∈ stmts, s.draws = false → s.isStuck = false) (h : drawsAny stmts = false) :
    endsStuck stmts = false := by
  induction stmts with
  | nil => rfl
  | cons s stmts ih =>
    rw [drawsAny, Bool.or_eq_false_iff, Bool.and_eq_false_iff] at h
    rw [endsStuck, h.2, if_neg Bool.false_ne_true, Bool.and_eq_false_iff]
    rcases h.1 with hf | hd
    · exact .inl hf
    · exact .inr (hs s (List.mem_cons_self ..) hd)

theorem fragment_region (s : Stmt) (i : Int) :
    (s.region i).entry.isSome = s.draws ∧ (s.region i).toFragment.isStuck = s.isStuck := by
  induction s using Stmt.induction generalizing i with
  | step action label => exact ⟨rfl, rfl⟩
  | block stmts ih =>
    obtain ⟨h1, h2⟩ := fragment_regionAll ih { start := i }
    rw [region, h1, h2, draws, isStuck]
    refine ⟨rfl, ?_⟩
    split_ifs with hd
    · rfl
    · -- nothing is entered, so nothing is stuck
      have hstuck : ∀ s ∈ stmts, s.draws = false → s.isStuck = false := by
        intro s hs hsd
        rw [← (ih s hs i).2, Fragment.isStuck, (ih s hs i).1, hsd, Bool.false_and]
      exact (endsStuck_of_not_drawsAny hstuck (by simpa using hd)).symm
  | branch label yes no ihy ihn =>
    rw [region, Region.isStuck_branch, (ihy _).2, (ihn _).2]
    exact ⟨rfl, rfl⟩
  | loop form label body ih => exact ⟨rfl, rfl⟩
  | function label body ih => exact ⟨rfl, rfl⟩

/-- A region is stuck exactly when its statement is. -/
theorem isStuck_region (s : Stmt) (i : Int) : (s.region i).toFragment.isStuck = s.isStuck :=
  (s.fragment_region i).2

end Stmt

/-! ## The edges at a header -/

namespace Region

variable {r : Region} {start : Int}

/-- Among the edges of a loop one goes back to the header exactly when the body is not stuck: the
    header's own if there is nothing to enter, else one from an exit of the body. -/
theorem exists_back_iff {form : LoopForm} {label : String} (hr : r.WellFormed)
    (hrs : r.start = start + 1) :
    (∃ e ∈ (loop start form label r).edges, e.label = .loop ∧ e.target = start) ↔
      r.toFragment.isStuck = false := by
  have h0 : ¬r.Owns start := not_owns_header hrs
  constructor
  · rintro ⟨e, he, hl, ht⟩
    rcases List.mem_append.1 he with he | he
    · exact absurd (ht ▸ (hr.edge_owned e he).2) h0
    · rcases mem_loopEdges he with ⟨hn, -⟩ | ⟨id, -, rfl⟩ | ⟨x, hx, -, -⟩
      · simp [Fragment.isStuck, hn]
      · simp at hl
      · have : r.exits ≠ [] := List.ne_nil_of_mem hx
        simp [Fragment.isStuck, this]
  · intro hstuck
    cases he : r.entry with
    | none =>
      refine ⟨⟨start, start, .loop⟩, ?_, rfl, rfl⟩
      simp [loop, loopEdges, he]
    | some id =>
      have hne : r.exits ≠ [] := Fragment.exits_ne_nil hstuck he
      have hmem : ∀ e ∈ r.backEdges start ++ r.lastEdge start,
          e ∈ (loop start form label r).edges := by
        intro e hmem
        simp only [loop, loopEdges, he, List.mem_append, List.mem_cons] at hmem ⊢
        exact .inr (.inr hmem)
      by_cases hany : ∃ x ∈ r.exits, r.backLabel x = .loop
      · obtain ⟨x, hx, hl⟩ := hany
        exact ⟨_, hmem _ (List.mem_append_left _ (List.mem_map.2 ⟨x, hx, rfl⟩)), hl, rfl⟩
      · refine ⟨⟨(r.exits.getLast hne).source, start, .loop⟩, hmem _ ?_, rfl, rfl⟩
        apply List.mem_append_right
        unfold lastEdge
        rw [if_neg (by simpa using hany), List.getLast?_eq_getLast_of_ne_nil hne]
        simp

end Region

/-- No edge that leaves a visited loop goes back to its header, so what goes back does so inside. -/
theorem Stmt.Visit.exists_back_iff {s : Stmt} {start i : Int} {form : LoopForm} {label : String}
    {body : Stmt} (h : s.Visit start (.loop form label body) i) :
    (∃ e ∈ (s.region start).edges, e.label = .loop ∧ e.target = i ∧
        ((Stmt.loop form label body).region i).Owns e.source) ↔ body.isStuck = false := by
  have hb := body.region_wellFormed (i + 1)
  have hl := (Stmt.loop form label body).region_wellFormed i
  have hback : (∃ e ∈ (Region.loop i form label (body.region (i + 1))).edges,
      e.label = .loop ∧ e.target = i) ↔ (body.region (i + 1)).toFragment.isStuck = false :=
    Region.exists_back_iff hb (body.region_start (i + 1))
  rw [← body.isStuck_region (i + 1), ← hback, ← Stmt.region]
  constructor
  · rintro ⟨e, he, hlabel, htarget, hsource⟩
    have hmem := Region.mem_edgesFrom.2 ⟨he, hsource⟩
    have hstart := (Stmt.loop form label body).region_start i
    have hstop := (Stmt.loop form label body).region_stop i
    have hsize : (Stmt.loop form label body).size = 1 + body.size := rfl
    rcases h.settled with ⟨hedges, -⟩ | ⟨target, hle, hedges, -⟩ |
      ⟨header, stop, -, hlt, -, last, hlast, hedges, -⟩
    all_goals rw [hedges] at hmem
    · exact ⟨e, hmem, hlabel, htarget⟩
    · rcases List.mem_append.1 hmem with hmem | hmem
      · exact ⟨e, hmem, hlabel, htarget⟩
      · -- what comes next lies behind the loop
        obtain ⟨x, -, rfl⟩ := List.mem_map.1 hmem
        replace htarget : target = i := htarget
        omega
    · rcases List.mem_append.1 hmem with hmem | hmem
      · exact ⟨e, hmem, hlabel, htarget⟩
      · -- a header around the loop lies before it
        have : e.target = header := by
          rcases List.mem_append.1 hmem with hmem | hmem
          · obtain ⟨x, -, rfl⟩ := List.mem_map.1 hmem
            rfl
          · rcases hlast with rfl | ⟨x, -, -, rfl⟩
            · simp at hmem
            · rw [List.mem_singleton.1 hmem]
        omega
  · rintro ⟨e, he, hlabel, htarget⟩
    refine ⟨e, ?_, hlabel, htarget, (hl.edge_owned e he).1⟩
    obtain ⟨extra, hedges, -⟩ := h.fate.extra
    exact (Region.mem_edgesFrom.1 (hedges ▸ List.mem_append_left extra he)).1

namespace Ast

/-- An edge marked as going back leads from the header of a visited loop, or from a node made while
    its body is visited, to the header. -/
def HasBackEdge (n : Ast) (d : Draft) (chart : Flowchart) : Prop :=
  ∃ e ∈ chart.edges, e.label = .loop ∧ e.target = d.nextId ∧
    (e.source = d.nextId ∨ ((n.begun d).nextId ≤ e.source ∧
      e.source < (n.bodyProgram.lay (n.begun d)).1.nextId))

/-- The body of a loop is stuck exactly when its fragment is. -/
theorem isStuck_bodyFragment {n : Ast} {d : Draft} (hd : d.WellFormed) (hk : n.kind.isLoop = true) :
    (n.bodyFragment d).isStuck = n.bodyProgram.isStuck := by
  obtain ⟨form, hl⟩ := exists_loopForm? hk
  rw [bodyFragment_eq hd (flowKind?_of_loop hl).1, Stmt.isStuck_region]

end Ast

/-- A visited loop has an edge back to its header exactly when control does not get stuck in its
    body. -/
theorem Flowchart.hasBackEdge_iff {limit : Int} {root n : Ast} {d : Draft} {chart : Flowchart}
    (h : (Flowchart.ofAst limit root).outcome = .ok chart) (hv : root.Visit n d)
    (hk : n.kind.isLoop = true) :
    n.HasBackEdge d chart ↔ n.bodyProgram.isStuck = false := by
  obtain ⟨malformed, rfl⟩ := Flowchart.eq_ofProgram_of_ofAst h
  obtain ⟨form, hl⟩ := Ast.exists_loopForm? hk
  obtain ⟨hd, hp⟩ := hv.toStmt
  rw [Ast.program_loop hl] at hp
  rw [← hp.exists_back_iff, Ast.HasBackEdge, (Flowchart.ofProgram_eq root.program malformed).2]
  have hnext := Ast.nextId_begun (Ast.flowKind?_of_loop hl).1 d
  have hlay := ((Ast.wellFormed_begun hd n).lay n.bodyProgram).2
  have howns : ∀ id, ((Stmt.loop form n.label n.bodyProgram).region d.nextId).Owns id ↔
      id = d.nextId ∨
        ((n.begun d).nextId ≤ id ∧ id < (n.bodyProgram.lay (n.begun d)).1.nextId) := by
    intro id
    rw [Stmt.region, Region.owns_loop (Stmt.region_start ..), Region.Owns, Stmt.region_start,
      Stmt.region_stop, hlay, hnext]
  simp only [howns]

/-- No exit of the body is marked as going back, so one more edge is. -/
theorem Flowchart.hasBackEdge_idleLoop : ∃ chart,
    (Flowchart.ofAst 1 Ast.idleLoop).outcome = .ok chart ∧ Ast.idleLoop.HasBackEdge {} chart := by
  obtain ⟨chart, h⟩ : ∃ chart, (Flowchart.ofAst 1 Ast.idleLoop).outcome = .ok chart := ⟨_, rfl⟩
  refine ⟨chart, h, (Flowchart.hasBackEdge_iff h .root rfl).2 ?_⟩
  rw [Ast.bodyProgram_of_child rfl, Ast.program_ifStmt rfl]
  rfl

/-- The loop `while (c) void g() {}`, which no grammar gives: a function stands in the body. -/
def Ast.stuckLoop : Ast where
  kind := .whileLoop
  slots := { condition := some 0, body := some 1 }
  children := [{ kind := .other, text := "c" }, { kind := .functionDef, name := some "g" }]

/-- Control does not come back from the function: no edge goes back to the header. -/
theorem Flowchart.not_hasBackEdge_stuckLoop : ∃ chart,
    (Flowchart.ofAst 1 Ast.stuckLoop).outcome = .ok chart ∧ Ast.stuckLoop.Visit Ast.stuckLoop {} ∧
      Ast.stuckLoop.kind.isLoop = true ∧ ¬Ast.stuckLoop.HasBackEdge {} chart := by
  refine ⟨⟨[⟨0, .whileLoop, "c"⟩, ⟨1, .function, "Function: g"⟩], [⟨0, 1, .body⟩], some 0, []⟩,
    by rfl, .root, rfl, ?_⟩
  rintro ⟨e, he, hl, -⟩
  rw [List.mem_singleton.1 he] at hl
  exact absurd hl (by decide)

end FlowSketch
