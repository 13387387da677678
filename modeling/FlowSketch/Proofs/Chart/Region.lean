import FlowSketch.Chart.Layout
import FlowSketch.Proofs.Program.Structure
import Mathlib.Data.List.Nodup

/-!
# Regions

What laying out a statement adds to a draft does not depend on the draft: it is the region of the
statement, shifted to where its ids begin. Regions are put together by one combinator for each form
of statement, and every invariant of a layout is one lemma for each combinator.

* `Region` — the nodes and edges of a statement with its entry and open exits.
* `Region.step`, `Region.seq`, `Region.branch`, `Region.loop`, `Region.function` — the combinators.
* `Stmt.region` — the region of a statement that starts at an id.

Results:

* `regionAll_induction`: what every member of a block keeps holds of the whole block.
* `Stmt.region_interval`: the region of a statement takes as many ids as the statement has nodes.
-/

namespace FlowSketch

/-- An exit led to a target. -/
def Exit.to (x : Exit) (target : Int) : FlowEdge := ⟨x.source, target, x.label⟩

/-- The nodes and edges of a statement, its entry and its open exits. Its ids count up from
    `start`. -/
structure Region extends Draft, Fragment where
  start : Int
  deriving DecidableEq, Repr

namespace Region

/-- The id after the last one. -/
def stop (r : Region) : Int := r.start + r.nodes.length

/-- The id is one of the region. -/
def Owns (r : Region) (id : Int) : Prop := r.start ≤ id ∧ id < r.stop

instance (r : Region) (id : Int) : Decidable (r.Owns id) := by unfold Owns; infer_instance

/-! ## Combinators -/

/-- The edge from a node into the region, if the region has an entry. -/
def into (r : Region) (source : Int) (label : EdgeLabel) : List FlowEdge :=
  match r.entry with
  | some entry => [⟨source, entry, label⟩]
  | none => []

/-- The exits of one side of a branch. A side without an entry leaves an exit at the branch. -/
def exitsFrom (r : Region) (source : Int) (label : EdgeLabel) : List Exit :=
  match r.entry with
  | some _ => r.exits
  | none => [⟨source, label⟩]

/-- The edges that lead the exits of a loop body back to the header. -/
def backEdges (r : Region) (header : Int) : List FlowEdge :=
  r.exits.map (fun x => ⟨x.source, header, r.backLabel x⟩)

/-- The additional edge back to the header, from the last exit, when no other is marked so. -/
def lastEdge (r : Region) (header : Int) : List FlowEdge :=
  if r.exits.any (fun x => r.backLabel x = .loop) then []
  else (r.exits.getLast?.map (fun x => ⟨x.source, header, .loop⟩)).toList

/-- The region without its entry and exits, as control passes over it. -/
def detached (r : Region) : Region := { r with entry := none, exits := [] }

/-- A single node. -/
def step (start : Int) (action : Action) (label : String) : Region where
  start := start
  nodes := [⟨start, action.flowKind, label⟩]
  entry := some start
  exits := [⟨start, .next⟩]

/-- Two regions, one after the other. A region without an entry is passed through. -/
def seq (r s : Region) : Region where
  start := r.start
  nodes := r.nodes ++ s.nodes
  edges := r.edges ++ s.edges ++ s.entry.elim [] (fun entry => r.exits.map (·.to entry))
  entry := r.entry <|> s.entry
  exits := s.entry.elim r.exits (fun _ => s.exits)

/-- A branch with its two sides. -/
def branch (start : Int) (label : String) (yes no : Region) : Region where
  start := start
  nodes := ⟨start, .branch, label⟩ :: (yes.nodes ++ no.nodes)
  edges := yes.edges ++ yes.into start .yes ++ (no.edges ++ no.into start .no)
  entry := some start
  exits := yes.exitsFrom start .yes ++ no.exitsFrom start .no

/-- The edges at the header of a loop: into the body and back, or round and round when there is
    nothing to enter. -/
def loopEdges (start : Int) (body : Region) : List FlowEdge :=
  match body.entry with
  | some entry => ⟨start, entry, .body⟩ :: (body.backEdges start ++ body.lastEdge start)
  | none => [⟨start, start, .loop⟩]

/-- A loop around its body. -/
def loop (start : Int) (form : LoopForm) (label : String) (body : Region) : Region where
  start := start
  nodes := ⟨start, form.flowKind, label⟩ :: body.nodes
  edges := body.edges ++ loopEdges start body
  entry := some (if form = .doWhile then body.entry.getD start else start)
  exits := [⟨start, .no⟩]

/-- A function around its body. The exits of the body stay open for good. -/
def function (start : Int) (label : String) (body : Region) : Region where
  start := start
  nodes := ⟨start, .function, label⟩ :: body.nodes
  edges := body.edges ++ body.into start .next
  entry := some start
  exits := []

end Region

/-! ## The region of a statement -/

mutual

/-- The region of a statement whose ids count up from `start`. -/
def Stmt.region : Stmt → (start : Int) → Region
  | .step action label, start => .step start action label
  | .block stmts, start => regionAll stmts { start }
  | .branch label yes no, start =>
    .branch start label (yes.region (start + 1)) (no.region (start + 1 + yes.size))
  | .loop form label body, start => .loop start form label (body.region (start + 1))
  | .function label body, start => .function start label (body.region (start + 1))

/-- The regions of statements one after the other, behind the region `before`. Functions stand
    apart. -/
def regionAll : List Stmt → (before : Region) → Region
  | [], before => before
  | s :: rest, before =>
    let r := s.region before.stop
    regionAll rest (before.seq (if s.isFunction then r.detached else r))

end

/-- The region of a statement as a member of a block. -/
def Stmt.member (s : Stmt) (start : Int) : Region :=
  if s.isFunction then (s.region start).detached else s.region start

theorem regionAll_cons (s : Stmt) (rest : List Stmt) (before : Region) :
    regionAll (s :: rest) before = regionAll rest (before.seq (s.member before.stop)) := by
  rw [regionAll]
  rfl

theorem regionAll_append (stmts rest : List Stmt) (before : Region) :
    regionAll (stmts ++ rest) before = regionAll rest (regionAll stmts before) := by
  induction stmts generalizing before with
  | nil => rw [List.nil_append, regionAll]
  | cons s stmts ih => rw [List.cons_append, regionAll_cons, regionAll_cons, ih]

/-- What holds of a region and is kept when a member of a block is put behind it holds of the whole
    block. -/
theorem regionAll_induction {P : Region → Prop} (stmts : List Stmt) {before : Region}
    (hb : P before)
    (hs : ∀ s ∈ stmts, ∀ r, P r → P (r.seq (s.member r.stop))) : P (regionAll stmts before) := by
  induction stmts generalizing before with
  | nil => rwa [regionAll]
  | cons s stmts ih =>
    rw [regionAll_cons]
    exact ih (hs s (List.mem_cons_self ..) before hb)
      (fun t ht => hs t (List.mem_cons_of_mem s ht))

/-! ## Intervals -/

namespace Region

variable {r s : Region} {id : Int}

theorem Owns.start_le (h : r.Owns id) : r.start ≤ id := h.1

theorem Owns.lt_stop (h : r.Owns id) : id < r.stop := h.2

theorem start_le_stop (r : Region) : r.start ≤ r.stop := by
  unfold stop
  omega

/-- Regions one behind the other share no id. -/
theorem Owns.not_behind (h : r.Owns id) (hs : s.start = r.stop) : ¬s.Owns id := by
  intro h'
  have := h.lt_stop
  have := h'.start_le
  omega

theorem Owns.not_before (h : s.Owns id) (hs : s.start = r.stop) : ¬r.Owns id :=
  fun h' => h'.not_behind hs h

/-- The header in front of a region is not one of its nodes. -/
theorem not_owns_header {i : Int} (h : r.start = i + 1) : ¬r.Owns i := by
  intro ho
  have := ho.start_le
  omega

/-- Nor is it one of the nodes of a second region behind the first. -/
theorem not_owns_header_second {i : Int} (h : r.start = i + 1) (hs : s.start = r.stop) :
    ¬s.Owns i := by
  intro ho
  have := ho.start_le
  have := r.start_le_stop
  omega

@[simp] theorem start_step (i : Int) (action : Action) (label : String) :
    (step i action label).start = i := rfl

@[simp] theorem start_seq (r s : Region) : (r.seq s).start = r.start := rfl

@[simp] theorem start_branch (i : Int) (label : String) (yes no : Region) :
    (branch i label yes no).start = i := rfl

@[simp] theorem start_loop (i : Int) (form : LoopForm) (label : String) (body : Region) :
    (loop i form label body).start = i := rfl

@[simp] theorem start_function (i : Int) (label : String) (body : Region) :
    (function i label body).start = i := rfl

@[simp] theorem stop_step (i : Int) (action : Action) (label : String) :
    (step i action label).stop = i + 1 := rfl

theorem stop_seq (h : s.start = r.stop) : (r.seq s).stop = s.stop := by
  simp only [stop, seq, List.length_append] at *
  omega

theorem stop_branch {i : Int} {label : String} {yes no : Region} (hy : yes.start = i + 1)
    (hn : no.start = yes.stop) : (branch i label yes no).stop = no.stop := by
  simp only [stop, branch, List.length_cons, List.length_append] at *
  omega

theorem stop_loop {i : Int} {form : LoopForm} {label : String} {body : Region}
    (h : body.start = i + 1) : (loop i form label body).stop = body.stop := by
  simp only [stop, loop, List.length_cons]
  omega

theorem stop_function {i : Int} {label : String} {body : Region} (h : body.start = i + 1) :
    (function i label body).stop = body.stop := by
  simp only [stop, function, List.length_cons]
  omega

theorem owns_seq (h : s.start = r.stop) : (r.seq s).Owns id ↔ r.Owns id ∨ s.Owns id := by
  have := r.start_le_stop
  have := s.start_le_stop
  unfold Owns
  rw [stop_seq h, start_seq]
  omega

theorem owns_branch {i : Int} {label : String} {yes no : Region} (hy : yes.start = i + 1)
    (hn : no.start = yes.stop) :
    (branch i label yes no).Owns id ↔ id = i ∨ yes.Owns id ∨ no.Owns id := by
  have := yes.start_le_stop
  have := no.start_le_stop
  unfold Owns
  rw [stop_branch hy hn, start_branch]
  omega

theorem owns_loop {i : Int} {form : LoopForm} {label : String} {body : Region}
    (h : body.start = i + 1) : (loop i form label body).Owns id ↔ id = i ∨ body.Owns id := by
  have := body.start_le_stop
  unfold Owns
  rw [stop_loop h, start_loop]
  omega

theorem owns_function {i : Int} {label : String} {body : Region} (h : body.start = i + 1) :
    (function i label body).Owns id ↔ id = i ∨ body.Owns id := by
  have := body.start_le_stop
  unfold Owns
  rw [stop_function h, start_function]
  omega

end Region

@[simp] theorem Stmt.start_member (s : Stmt) (start : Int) :
    (s.member start).start = (s.region start).start := by
  unfold member
  split_ifs <;> rfl

@[simp] theorem Stmt.stop_member (s : Stmt) (start : Int) :
    (s.member start).stop = (s.region start).stop := by
  unfold member
  split_ifs <;> rfl

theorem regionAll_interval_of {stmts : List Stmt}
    (hs : ∀ s ∈ stmts, ∀ i, (s.region i).start = i ∧ (s.region i).stop = i + s.size)
    (before : Region) : (regionAll stmts before).start = before.start ∧
      (regionAll stmts before).stop = before.stop + Stmt.sizeAll stmts := by
  induction stmts generalizing before with
  | nil => simp [regionAll, Stmt.sizeAll]
  | cons s stmts ih =>
    obtain ⟨hstart, hstop⟩ := hs s (List.mem_cons_self ..) before.stop
    obtain ⟨h1, h2⟩ := ih (fun t ht => hs t (List.mem_cons_of_mem s ht))
      (before.seq (s.member before.stop))
    rw [regionAll_cons, h1, h2, Region.stop_seq (by rw [Stmt.start_member, hstart]),
      Stmt.stop_member, hstop, Stmt.sizeAll]
    refine ⟨rfl, ?_⟩
    push_cast
    omega

/-- The region of a statement starts where it is told to and has one id for each node that the
    statement draws. -/
theorem Stmt.region_interval (s : Stmt) (start : Int) :
    (s.region start).start = start ∧ (s.region start).stop = start + s.size := by
  induction s using Stmt.induction generalizing start with
  | step action label => simp [region, size]
  | block stmts ih =>
    have := regionAll_interval_of ih { start }
    simpa [region, size, Region.stop] using this
  | branch label yes no ihy ihn =>
    have hy := ihy (start + 1)
    have hn := ihn (start + 1 + yes.size)
    rw [region, Region.stop_branch hy.1 (by rw [hn.1, hy.2]), hn.2, size]
    refine ⟨rfl, ?_⟩
    push_cast
    omega
  | loop form label body ih =>
    have hb := ih (start + 1)
    rw [region, Region.stop_loop hb.1, hb.2, size]
    refine ⟨rfl, ?_⟩
    push_cast
    omega
  | function label body ih =>
    have hb := ih (start + 1)
    rw [region, Region.stop_function hb.1, hb.2, size]
    refine ⟨rfl, ?_⟩
    push_cast
    omega

@[simp] theorem Stmt.region_start (s : Stmt) (start : Int) : (s.region start).start = start :=
  (s.region_interval start).1

@[simp] theorem Stmt.region_stop (s : Stmt) (start : Int) :
    (s.region start).stop = start + s.size :=
  (s.region_interval start).2

/-- The members of a block take the ids behind one another. -/
theorem regionAll_interval (stmts : List Stmt) (before : Region) :
    (regionAll stmts before).start = before.start ∧
      (regionAll stmts before).stop = before.stop + Stmt.sizeAll stmts :=
  regionAll_interval_of (fun s _ => s.region_interval) before

end FlowSketch
