import FlowSketch.Chart.Build
import FlowSketch.Proofs.Program.Structure

/-!
# Layouts on other canvases

A layout makes nodes, leads edges and gathers the exits of a branch, and leaves it to the draft to
pass over an edge that is there already and an exit that is listed twice. Here a layout is drawn on
any canvas that can do these three things, so that layouts with and without such filters are one
definition, and so is one that keeps a record of what the filters are given.

* `Canvas` — what a layout is drawn on.
* `Canvas.lay`, `Canvas.build` — a statement laid out on a canvas, and the flowchart of a tree.
* `Canvas.filtering` — the draft with its filters.
* `Canvas.unfiltered` — a draft that takes everything.
* `Canvas.recording` — the draft with its filters, and a record of all that goes through them.

Results:

* `Canvas.lay_filtering`, `Canvas.build_filtering`: on a draft with its filters a layout is the
  usual one.
-/

namespace FlowSketch

/-- What a layout is drawn on. -/
structure Canvas (δ : Type) where
  /-- Nothing is drawn. -/
  blank : δ
  /-- What is drawn so far. -/
  draft : δ → Draft
  addNode : δ → FlowKind → String → δ
  addEdge : δ → FlowEdge → δ
  /-- What becomes of the exits of a branch. -/
  distinct : δ → List Exit → δ × List Exit

namespace Canvas

variable {δ : Type} (C : Canvas δ)

/-! ## Layouts -/

/-- The id that the next node will have. -/
def nextId (c : δ) : Int := (C.draft c).nextId

/-- Every exit led to the target. -/
def connect (c : δ) (exits : List Exit) (target : Int) : δ :=
  exits.foldl (fun c exit => C.addEdge c ⟨exit.source, target, exit.label⟩) c

/-- The exits of a loop body led back to the header, with an edge marked as going back from the last
    exit if no other is. -/
def closeLoop (c : δ) (header : Int) (exits : List Exit) : δ :=
  let back := (C.draft c).backLabel
  let closed := exits.foldl (fun c exit => C.addEdge c ⟨exit.source, header, back exit⟩) c
  if exits.any (fun exit => back exit = .loop) then closed
  else match exits.getLast? with
    | some exit => C.addEdge closed ⟨exit.source, header, .loop⟩
    | none => closed

/-- A branch led into the fragment of one of its sides. -/
def attach (side : Fragment) (c : δ) (branch : Int) (label : EdgeLabel) : δ × List Exit :=
  match side.entry with
  | some entry => (C.addEdge c ⟨branch, entry, label⟩, side.exits)
  | none => (c, [⟨branch, label⟩])

mutual

/-- A statement laid out on a canvas. -/
def lay : Stmt → δ → δ × Fragment
  | .step action label, c =>
    (C.addNode c action.flowKind label, ⟨some (C.nextId c), [⟨C.nextId c, .next⟩]⟩)
  | .block stmts, c => layAll stmts c {}
  | .branch label yes no, c =>
    let decision := C.nextId c
    let c := C.addNode c .branch label
    let (c, yesPart) := lay yes c
    let (c, yesExits) := C.attach yesPart c decision .yes
    let (c, noPart) := lay no c
    let (c, noExits) := C.attach noPart c decision .no
    let (c, exits) := C.distinct c (yesExits ++ noExits)
    (c, ⟨some decision, exits⟩)
  | .loop form label body, c =>
    let header := C.nextId c
    let c := C.addNode c form.flowKind label
    let (c, part) := lay body c
    match part.entry with
    | none => (C.addEdge c ⟨header, header, .loop⟩, ⟨some header, [⟨header, .no⟩]⟩)
    | some entry =>
      let c := C.closeLoop (C.addEdge c ⟨header, entry, .body⟩) header part.exits
      (c, ⟨some (if form = .doWhile then entry else header), [⟨header, .no⟩]⟩)
  | .function label body, c =>
    let start := C.nextId c
    let c := C.addNode c .function label
    let (c, part) := lay body c
    match part.entry with
    | some entry => (C.addEdge c ⟨start, entry, .next⟩, ⟨some start, []⟩)
    | none => (c, ⟨some start, []⟩)

/-- Statements laid out on a canvas one after the other, behind what `before` holds. -/
def layAll : List Stmt → δ → (before : Fragment) → δ × Fragment
  | [], c, before => (c, before)
  | stmt :: rest, c, before =>
    let (c, part) := lay stmt c
    match stmt.isFunction, part.entry with
    | false, some entry =>
      layAll rest (C.connect c before.exits entry) ⟨before.entry <|> some entry, part.exits⟩
    | _, _ => layAll rest c before

end

/-- The flowchart of what is drawn. -/
def chart (c : δ) (malformed : List Malformed) : Flowchart where
  nodes := (C.draft c).nodes
  edges := (C.draft c).edges
  entry := (C.draft c).nodes.head?.map (·.id)
  malformed := malformed

/-- The flowchart of a tree drawn on a canvas, with the canvas as it is left. -/
def build (limit : Int) (root : Ast) : Except Failure (Flowchart × δ) :=
  let outlined := root.outline limit
  outlined.outcome.map fun program =>
    let (c, _) := C.lay program C.blank
    (C.chart c (outlined.events.filterMap Event.malformed?), c)

/-! ## Canvases -/

/-- A draft that looks for repetitions. -/
def filtering : Canvas Draft where
  blank := {}
  draft := id
  addNode := Draft.addNode
  addEdge d e := d.addEdge e.source e.target e.label
  distinct d exits := (d, Fragment.distinct exits)

/-- A draft that takes every edge, and every exit of a branch, as it comes. -/
def unfiltered : Canvas Draft where
  blank := {}
  draft := id
  addNode := Draft.addNode
  addEdge d e := { d with edges := d.edges ++ [e] }
  distinct d exits := (d, exits)

/-- What goes through a filter: an edge, with those that are drawn at that moment, or the exits of a
    branch. -/
inductive Attempt where
  | edge (drawn : List FlowEdge) (e : FlowEdge)
  | exits (listed : List Exit)

namespace Attempt

/-- There is nothing to filter out. -/
def IsNew : Attempt → Prop
  | edge drawn e => e ∉ drawn
  | exits listed => listed.Nodup

/-- The edge that is to be drawn. -/
def edge? : Attempt → Option FlowEdge
  | edge _ e => some e
  | exits _ => none

end Attempt

/-- A draft with a record of what went through its filters. -/
structure Recorded where
  draft : Draft := {}
  attempts : List Attempt := []

/-- A draft that looks for repetitions, and records what it looks at. -/
def recording : Canvas Recorded where
  blank := {}
  draft := Recorded.draft
  addNode r kind label := { r with draft := r.draft.addNode kind label }
  addEdge r e :=
    { draft := r.draft.addEdge e.source e.target e.label
      attempts := r.attempts ++ [.edge r.draft.edges e] }
  distinct r exits :=
    ({ r with attempts := r.attempts ++ [.exits exits] }, Fragment.distinct exits)

theorem layAll_cons (s : Stmt) (rest : List Stmt) (c : δ) (before : Fragment) :
    C.layAll (s :: rest) c before =
      C.layAll rest (C.layAll [s] c before).1 (C.layAll [s] c before).2 := by
  simp only [layAll]
  split <;> rfl

/-! ## The usual layout -/

theorem layAll_filtering_of {stmts : List Stmt}
    (h : ∀ s ∈ stmts, ∀ d, filtering.lay s d = s.lay d) (d : Draft) (before : Fragment) :
    filtering.layAll stmts d before = FlowSketch.layAll stmts d before := by
  induction stmts generalizing d before with
  | nil => rw [layAll, FlowSketch.layAll]
  | cons s stmts ih =>
    have ih := ih fun t ht => h t (List.mem_cons_of_mem s ht)
    rw [layAll, FlowSketch.layAll, h s List.mem_cons_self]
    simp only [ih]
    rfl

/-- On a draft with its filters a statement is laid out as usual. -/
theorem lay_filtering (s : Stmt) (d : Draft) : filtering.lay s d = s.lay d := by
  induction s using Stmt.induction generalizing d with
  | step action label =>
    rw [lay, Stmt.lay]
    rfl
  | block stmts ih => rw [lay, Stmt.lay, layAll_filtering_of ih]
  | branch label yes no ihy ihn =>
    rw [lay, Stmt.lay]
    simp only [ihy, ihn]
    rfl
  | loop form label body ih =>
    rw [lay, Stmt.lay]
    simp only [ih]
    rfl
  | function label body ih =>
    rw [lay, Stmt.lay]
    simp only [ih]
    rfl

/-- On a draft with its filters the flowchart of a tree is the usual one. -/
theorem build_filtering (limit : Int) (root : Ast) :
    (filtering.build limit root).map Prod.fst = (Flowchart.ofAst limit root).outcome := by
  unfold build Flowchart.ofAst
  simp only [Report.outcome_bind]
  cases (root.outline limit).outcome with
  | error failure => rfl
  | ok program =>
    simp only [Except.map, lay_filtering]
    rfl

end Canvas

end FlowSketch
