import FlowSketch.Proofs.Chart.Depth
import FlowSketch.Proofs.Chart.WellFormed
import FlowSketch.Proofs.Chart.Layout
import Mathlib.Data.List.Forall2

/-!
# Text has no part in the structure

A flowchart has the shape of its tree whatever the texts, names, lines, conditions and passed-over
children of the tree are: the shape is a function of what control goes through. What it is a
function of is more than the kinds of the nodes that are visited: control enters a function that is
the body of another, and passes over it where it is only a child.

* `Ast.skeleton` — a tree without all that is not visited, with only a head for each node.
* `Ast.role` — the kind of a node, and whether it is a function with a function as its body.
* `Region.unlabelled` — a region without its labels.
* `Stmt.ShapedAs` — a statement has the shape of an unlabelled one.

Results:

* `Stmt.ShapedAs.block`, `Stmt.ShapedAs.branch`, `Stmt.ShapedAs.loop`, `Stmt.ShapedAs.function`: the
  shape of a statement is put together from the shapes of its parts.
* `Ast.shapedAs_skeleton`: the program of a tree has the shape of its skeleton.
* `Flowchart.edges_differ_nestedBody`: the kinds alone do not tell the shape.
* `Flowchart.sameShape_of_skeleton`: trees with one skeleton are drawn in one shape.
-/

namespace FlowSketch

/-! ## Skeletons -/

/-- A tree of which only a head is left of each node; `absent` stands in a place that is empty. -/
inductive Skeleton (α : Type) where
  | absent
  | node (head : α) (parts : List (Skeleton α))

/-- What a node is to the flow of control: its kind, and whether it is a function with a function as
    its body. -/
structure Role where
  kind : Kind
  entersFunction : Bool
  deriving DecidableEq

namespace Ast

variable {α : Type} {n m : Ast}

/-- The places that are visited from a node, each with the node that is there if any: the children
    of a block, the body of an `else` or function, or its children when it has no body, the two
    sides of a branch, and the body of a loop. -/
def parts (n : Ast) : List (Option Ast) :=
  match n.kind with
  | .compoundBlock => n.children.map some
  | .elseClause | .functionDef => n.bodyOrChildren.map some
  | .ifStmt => [n.child? .body, n.child? .elseBranch]
  | .forLoop | .whileLoop | .doWhile => [n.child? .body]
  | _ => []

theorem visited_eq_parts (n : Ast) : n.visited = n.parts.filterMap id := by
  unfold visited parts
  cases n.kind <;> simp only [List.filterMap_map, Function.id_comp, List.filterMap_some]
  case ifStmt => cases n.child? .body <;> cases n.child? .elseBranch <;> rfl
  case forLoop => cases n.child? .body <;> rfl
  case whileLoop => cases n.child? .body <;> rfl
  case doWhile => cases n.child? .body <;> rfl
  all_goals rfl

theorem mem_children_of_mem_parts (h : some m ∈ n.parts) : m ∈ n.children := by
  apply mem_children_of_mem_visited
  rw [visited_eq_parts]
  exact List.mem_filterMap.2 ⟨some m, h, rfl⟩

/-- The skeleton of a tree: the head of the root with the skeletons of the nodes that are visited
    from it. -/
def skeleton (head : Ast → α) (n : Ast) : Skeleton α :=
  .node (head n) (n.parts.attach.map fun part =>
    match part with
    | ⟨none, _⟩ => .absent
    | ⟨some m, _⟩ => m.skeleton head)
termination_by sizeOf n
decreasing_by exact sizeOf_lt_of_mem_children (mem_children_of_mem_parts ‹_›)

theorem skeleton_eq (head : Ast → α) (n : Ast) : n.skeleton head =
    .node (head n) (n.parts.map fun part => part.elim .absent (skeleton head)) := by
  rw [skeleton, ← List.attach_map_val (l := n.parts)]
  congr 1
  refine List.map_congr_left fun part _ => ?_
  obtain ⟨_ | m, _⟩ := part <;> rfl

/-- What the node is to the flow of control. -/
def role (n : Ast) : Role where
  kind := n.kind
  entersFunction := n.kind = .functionDef && (n.child? .body).any (·.kind = .functionDef)

end Ast

namespace Role

/-- The unlabelled statement of a node, put together from those of its places. -/
def assemble (role : Role) (stmts : List Stmt) : Stmt :=
  match role.kind with
  | .functionDef =>
    .function "" (if role.entersFunction then stmts.headD (.block []) else .block stmts)
  | .compoundBlock | .elseClause => .block stmts
  | .ifStmt => .branch "" (stmts.getD 0 (.block [])) (stmts.getD 1 (.block []))
  | kind =>
    match kind.loopForm? with
    | some form => .loop form "" (stmts.headD (.block []))
    | none => .step (Ast.actionOf kind) ""

end Role

namespace Skeleton

mutual

/-- The unlabelled program of a skeleton, the empty block for a place that is empty. -/
def program : Skeleton Role → Stmt
  | absent => .block []
  | node role parts => role.assemble (programAll parts)

/-- The unlabelled programs of several places. -/
def programAll : List (Skeleton Role) → List Stmt
  | [] => []
  | part :: rest => part.program :: programAll rest

end

theorem programAll_eq_map (parts : List (Skeleton Role)) :
    programAll parts = parts.map program := by
  induction parts with
  | nil => rfl
  | cons part rest ih => rw [programAll, ih, List.map_cons]

variable {α : Type}

/-- Some node lies that many steps below the root of the skeleton. -/
def reaches : (steps : Nat) → Skeleton α → Bool
  | _, absent => false
  | 0, node _ _ => true
  | steps + 1, node _ parts => parts.any (reaches steps)

/-- A tree is visited as deep as its skeleton is. -/
theorem reaches_skeleton (head : Ast → α) (steps : Nat) (n : Ast) :
    (n.skeleton head).reaches steps = n.reaches steps := by
  induction steps generalizing n with
  | zero => rw [Ast.skeleton_eq, reaches, Ast.reaches]
  | succ steps ih =>
    rw [Ast.skeleton_eq, reaches, Ast.reaches, Ast.visited_eq_parts, List.any_map,
      List.any_filterMap]
    congr 1
    funext part
    cases part with
    | none => rw [Function.comp_apply, Option.elim_none, reaches]; rfl
    | some m => exact ih m

end Skeleton

/-! ## Regions without labels -/

namespace Region

variable {r s : Region} {i : Int}

/-- The region with the labels of its nodes gone. -/
def unlabelled (r : Region) : Region :=
  { r with nodes := r.nodes.map (fun node => { node with label := "" }) }

@[simp] theorem stop_unlabelled (r : Region) : r.unlabelled.stop = r.stop := by
  simp [stop, unlabelled]

theorem isBranch_unlabelled (r : Region) (id : Int) :
    r.unlabelled.isBranch id = r.isBranch id := by
  simp [Draft.isBranch, unlabelled, Function.comp_def]

/-- So the exits of a loop body go back with the same labels. -/
theorem backLabel_unlabelled (r : Region) : r.unlabelled.backLabel = r.backLabel := by
  funext x
  exact backLabel_congr (isBranch_unlabelled r x.source)

theorem unlabelled_detached (r : Region) : r.detached.unlabelled = r.unlabelled.detached := rfl

theorem unlabelled_seq (r s : Region) : (r.seq s).unlabelled = r.unlabelled.seq s.unlabelled := by
  simp [unlabelled, seq]

theorem unlabelled_branch (i : Int) (label : String) (yes no : Region) :
    (branch i label yes no).unlabelled = branch i "" yes.unlabelled no.unlabelled := by
  simp [unlabelled, branch, into, exitsFrom]

theorem loopEdges_unlabelled (i : Int) (body : Region) :
    loopEdges i body.unlabelled = loopEdges i body := by
  simp only [loopEdges, backEdges, lastEdge, backLabel_unlabelled]
  rfl

theorem unlabelled_loop (i : Int) (form : LoopForm) (label : String) (body : Region) :
    (loop i form label body).unlabelled = loop i form "" body.unlabelled := by
  simp only [loop, loopEdges_unlabelled]
  rfl

theorem unlabelled_function (i : Int) (label : String) (body : Region) :
    (function i label body).unlabelled = function i "" body.unlabelled := rfl

end Region

/-! ## Shapes of statements -/

namespace Stmt

/-- The statement has the shape of another one that has no labels. -/
structure ShapedAs (s t : Stmt) : Prop where
  isFunction_eq : s.isFunction = t.isFunction
  region_eq : ∀ i, (s.region i).unlabelled = t.region i

variable {s t : Stmt}

theorem ShapedAs.size_eq (h : s.ShapedAs t) : s.size = t.size := by
  have hstop := congrArg Region.stop (h.region_eq 0)
  rw [Region.stop_unlabelled, region_stop, region_stop] at hstop
  omega

theorem ShapedAs.member_eq (h : s.ShapedAs t) (i : Int) :
    (s.member i).unlabelled = t.member i := by
  unfold member
  rw [h.isFunction_eq]
  split_ifs
  · rw [Region.unlabelled_detached, h.region_eq]
  · exact h.region_eq i

theorem ShapedAs.regionAll_eq {stmts others : List Stmt}
    (h : List.Forall₂ ShapedAs stmts others) (before : Region) :
    (regionAll stmts before).unlabelled = regionAll others before.unlabelled := by
  induction h generalizing before with
  | nil => rw [regionAll, regionAll]
  | cons hs _ ih =>
    rw [regionAll_cons, regionAll_cons, ih, Region.unlabelled_seq, hs.member_eq,
      Region.stop_unlabelled]

theorem ShapedAs.step (action : Action) (label : String) :
    (Stmt.step action label).ShapedAs (.step action "") :=
  ⟨rfl, fun _ => rfl⟩

theorem ShapedAs.block {stmts others : List Stmt} (h : List.Forall₂ ShapedAs stmts others) :
    (Stmt.block stmts).ShapedAs (.block others) := by
  refine ⟨rfl, fun i => ?_⟩
  rw [region, region]
  exact regionAll_eq h _

theorem ShapedAs.branch {yes no yes' no' : Stmt} (label : String) (hyes : yes.ShapedAs yes')
    (hno : no.ShapedAs no') : (Stmt.branch label yes no).ShapedAs (.branch "" yes' no') := by
  refine ⟨rfl, fun i => ?_⟩
  rw [region, region, Region.unlabelled_branch, hyes.region_eq, hno.region_eq, hyes.size_eq]

theorem ShapedAs.loop {body body' : Stmt} (form : LoopForm) (label : String)
    (h : body.ShapedAs body') : (Stmt.loop form label body).ShapedAs (.loop form "" body') := by
  refine ⟨rfl, fun i => ?_⟩
  rw [region, region, Region.unlabelled_loop, h.region_eq]

theorem ShapedAs.function {body body' : Stmt} (label : String)
    (h : ∀ i, (body.region i).unlabelled = body'.region i) :
    (Stmt.function label body).ShapedAs (.function "" body') := by
  refine ⟨rfl, fun i => ?_⟩
  rw [region, region, Region.unlabelled_function, h]

/-- A statement that is no function is drawn alike alone and as the only one of a block. -/
theorem region_block_singleton (h : s.isFunction = false) (i : Int) :
    (block [s]).region i = s.region i := by
  have hstop : ({ start := i } : Region).stop = i := by simp [Region.stop]
  have hstart := s.region_start i
  have hnil := (s.region_wellFormed i).exits_nil
  rw [region, regionAll_cons, member, h, if_neg (by decide), regionAll, hstop]
  generalize s.region i = r at hstart hnil
  obtain ⟨⟨nodes, edges⟩, ⟨entry, exits⟩, start⟩ := r
  cases entry <;> simp_all [Region.seq]

end Stmt

/-! ## The shape of a tree -/

namespace Role

variable {role : Role}

theorem assemble_step (h : role.kind.isStep = true) (stmts : List Stmt) :
    role.assemble stmts = .step (Ast.actionOf role.kind) "" := by
  unfold assemble
  cases hk : role.kind <;> simp_all [Kind.isStep, Kind.loopForm?]

theorem assemble_sequence (h : role.kind = .compoundBlock ∨ role.kind = .elseClause)
    (stmts : List Stmt) : role.assemble stmts = .block stmts := by
  rcases h with hk | hk <;> rw [assemble, hk]

theorem assemble_ifStmt (h : role.kind = .ifStmt) (yes no : Stmt) :
    role.assemble [yes, no] = .branch "" yes no := by
  rw [assemble, h]
  rfl

theorem assemble_loop {form : LoopForm} (h : role.kind.loopForm? = some form)
    (stmts : List Stmt) : role.assemble stmts = .loop form "" (stmts.headD (.block [])) := by
  unfold assemble
  cases hk : role.kind <;> simp_all [Kind.loopForm?]

theorem assemble_functionDef (h : role.kind = .functionDef) (stmts : List Stmt) :
    role.assemble stmts = .function ""
      (if role.entersFunction then stmts.headD (.block []) else .block stmts) := by
  rw [assemble, h]

end Role

namespace Ast

variable {n m : Ast}

theorem parts_of_sequence (h : n.kind = .compoundBlock ∨ n.kind = .elseClause) :
    n.parts = n.members.map some := by
  rcases h with hk | hk <;> cases hb : n.child? .body <;>
    simp [parts, members, bodyOrChildren, hk, hb]

theorem parts_of_loop {form : LoopForm} (h : n.kind.loopForm? = some form) :
    n.parts = [n.child? .body] := by
  cases hk : n.kind <;> simp_all [Kind.loopForm?, parts]

theorem forall₂_programs {ns : List Ast}
    (h : ∀ m ∈ ns, m.program.ShapedAs (m.skeleton role).program) :
    List.Forall₂ Stmt.ShapedAs (ns.map program) (ns.map fun m => (m.skeleton role).program) := by
  rw [List.forall₂_map_left_iff, List.forall₂_map_right_iff, List.forall₂_same]
  exact h

/-- The unlabelled statement of a place. -/
theorem shapedAs_slotProgram (slot : Slot)
    (h : ∀ m ∈ n.children, m.program.ShapedAs (m.skeleton role).program) :
    (n.slotProgram slot).ShapedAs
      ((n.child? slot).elim .absent (skeleton role)).program := by
  unfold slotProgram
  cases hc : n.child? slot with
  | none => exact .block .nil
  | some m => exact h m (mem_children_of_child? hc)

/-- The unlabelled statement of a function. -/
theorem shapedAs_functionDef (hk : n.kind = .functionDef)
    (h : ∀ m ∈ n.children, m.program.ShapedAs (m.skeleton role).program) :
    n.program.ShapedAs (n.role.assemble
      (n.parts.map fun part => (part.elim .absent (skeleton role)).program)) := by
  rw [program_functionDef hk, Role.assemble_functionDef hk]
  refine .function _ fun i => ?_
  cases hb : n.child? .body with
  | none =>
    have hparts : n.parts = n.children.map some := by simp [parts, bodyOrChildren, hk, hb]
    have henters : n.role.entersFunction = false := by simp [role, hb]
    have hbody : n.bodyProgram = .block (n.children.map program) := by
      simp [bodyProgram, members, hk, hb]
    rw [hparts, henters, hbody, List.map_map]
    exact (Stmt.ShapedAs.block (forall₂_programs h)).region_eq i
  | some body =>
    have hparts : n.parts = [some body] := by simp [parts, bodyOrChildren, hk, hb]
    have hshaped := h body (mem_children_of_child? hb)
    rw [hparts, bodyProgram_of_child hb, hshaped.region_eq]
    by_cases hfunction : body.kind = .functionDef
    · -- control enters a function that is the body
      have henters : n.role.entersFunction = true := by simp [role, hk, hb, hfunction]
      rw [henters]
      rfl
    · -- any other body is drawn as the only statement of a block would be
      have henters : n.role.entersFunction = false := by simp [role, hb, hfunction]
      have hnot : (body.skeleton role).program.isFunction = false := by
        rw [← hshaped.isFunction_eq, isFunction_program_eq, decide_eq_false hfunction]
      rw [henters, if_neg (by decide)]
      exact (Stmt.region_block_singleton hnot i).symm

/-- The program of a tree has the shape of its skeleton. -/
theorem shapedAs_skeleton (n : Ast) : n.program.ShapedAs (n.skeleton role).program := by
  induction n using Ast.induction with
  | node n ih =>
    rw [skeleton_eq, Skeleton.program, Skeleton.programAll_eq_map, List.map_map]
    rcases n.kind_cases with hk | hk | hk | ⟨form, hk⟩ | hk
    · rw [program_step hk, Role.assemble_step hk]
      exact .step _ _
    · rw [program_sequence hk, Role.assemble_sequence hk, parts_of_sequence hk, List.map_map]
      exact .block (forall₂_programs fun m hm => ih m (mem_children_of_mem_members hm))
    · have hparts : n.parts = [n.child? .body, n.child? .elseBranch] := by rw [parts, hk]
      rw [program_ifStmt hk, hparts, List.map_cons, List.map_singleton, Role.assemble_ifStmt hk]
      exact .branch _ (shapedAs_slotProgram .body ih) (shapedAs_slotProgram .elseBranch ih)
    · rw [program_loop hk, bodyProgram_of_loop hk, Role.assemble_loop hk, parts_of_loop hk]
      exact .loop form _ (shapedAs_slotProgram .body ih)
    · exact shapedAs_functionDef hk ih

end Ast

/-! ## Shapes of flowcharts -/

namespace Flowchart

variable {root other : Ast} {limit : Int}

/-- Two flowcharts differ in labels and malformed nodes at most. -/
structure SameShape (chart other : Flowchart) : Prop where
  entry_eq : chart.entry = other.entry
  nodes_eq : chart.nodes.map (fun node => (node.id, node.kind)) =
    other.nodes.map (fun node => (node.id, node.kind))
  edges_eq : chart.edges = other.edges

/-- Programs of one shape are drawn in one shape. -/
theorem sameShape_ofProgram {s s' t : Stmt} (h : s.ShapedAs t) (h' : s'.ShapedAs t)
    (malformed malformed' : List Malformed) :
    (ofProgram s malformed).SameShape (ofProgram s' malformed') := by
  have hregion : (s.region 0).unlabelled = (s'.region 0).unlabelled :=
    (h.region_eq 0).trans (h'.region_eq 0).symm
  obtain ⟨hnodes, hedges⟩ := ofProgram_eq s malformed
  obtain ⟨hnodes', hedges'⟩ := ofProgram_eq s' malformed'
  have hkinds : (ofProgram s malformed).nodes.map (fun node => (node.id, node.kind)) =
      (ofProgram s' malformed').nodes.map (fun node => (node.id, node.kind)) := by
    have hfigures := congrArg (fun r : Region => r.nodes.map (fun node => (node.id, node.kind)))
      hregion
    simp only [Region.unlabelled, List.map_map] at hfigures
    rw [hnodes, hnodes']
    exact hfigures
  have hentry : ∀ (s : Stmt) (malformed : List Malformed), (ofProgram s malformed).entry =
      (((ofProgram s malformed).nodes.map (fun node => (node.id, node.kind))).map
        Prod.fst).head? := by
    intro s malformed
    rw [List.map_map, List.head?_map]
    rfl
  constructor
  case entry_eq => rw [hentry, hentry, hkinds]
  case nodes_eq => exact hkinds
  case edges_eq =>
    have hsame := congrArg (fun r : Region => r.edges) hregion
    rw [hedges, hedges']
    exact hsame

/-- Trees with one skeleton are drawn in one shape, or both nest too deep and fail at one depth,
    whatever else they hold. -/
theorem sameShape_of_skeleton (limit : Int) (h : root.skeleton Ast.role = other.skeleton Ast.role) :
    (∃ depth, (ofAst limit root).outcome = .error (.tooDeep depth limit) ∧
      (ofAst limit other).outcome = .error (.tooDeep depth limit)) ∨
    ∃ chart chart', (ofAst limit root).outcome = .ok chart ∧
      (ofAst limit other).outcome = .ok chart' ∧ chart.SameShape chart' := by
  have hreaches : root.reaches (limit + 1).toNat = other.reaches (limit + 1).toNat := by
    rw [← Skeleton.reaches_skeleton Ast.role, h, Skeleton.reaches_skeleton]
  rw [outcome_ofAst, outcome_ofAst, ← hreaches]
  cases root.reaches (limit + 1).toNat with
  | true => exact .inl ⟨_, rfl, rfl⟩
  | false =>
    refine .inr ⟨_, _, rfl, rfl, sameShape_ofProgram root.shapedAs_skeleton ?_ _ _⟩
    rw [h]
    exact other.shapedAs_skeleton

end Flowchart

/-- A function `f` with a function `g` as its body. -/
def Ast.nestedBody : Ast where
  kind := .functionDef
  text := "void f() void g() {}"
  name := some "f"
  slots := { body := some 0 }
  children := [{ kind := .functionDef, text := "void g() {}", name := some "g" }]

/-- The same function without a body, with `g` as its only child. -/
def Ast.nestedChild : Ast := { nestedBody with slots := {} }

/-- Both visit the same nodes, but control enters `g` only where it is the body. -/
theorem Flowchart.edges_differ_nestedBody :
    Ast.nestedBody.skeleton Ast.kind = Ast.nestedChild.skeleton Ast.kind ∧
    ∃ chart chart', (ofAst 200 Ast.nestedBody).outcome = .ok chart ∧
      (ofAst 200 Ast.nestedChild).outcome = .ok chart' ∧
      chart.edges = [⟨0, 1, .next⟩] ∧ chart'.edges = [] ∧ ¬chart.SameShape chart' := by
  refine ⟨?_, _, _, rfl, rfl, rfl, rfl, fun h => ?_⟩
  · simp [Ast.skeleton_eq, Ast.parts, Ast.bodyOrChildren, Ast.nestedBody, Ast.nestedChild,
      Ast.child?, Slots.get]
  · exact absurd h.edges_eq (by decide)

/-- The function `void f() { while (a) if (b) return; }`, its comments among the children. -/
def Ast.commented : Ast where
  kind := .functionDef
  text := "void f() { while (a) if (b) return; }"
  name := some "f"
  line := 1
  slots := { body := some 1 }
  children := [{ kind := .other, text := "// first" },
    { kind := .whileLoop, text := "while (a) if (b) return;", line := 1
      slots := { condition := some 0, body := some 1 }
      children := [{ kind := .other, text := "a" },
        { kind := .ifStmt, text := "if (b) return;", line := 1
          slots := { condition := some 0, body := some 1 }
          children :=
            [{ kind := .other, text := "b" }, { kind := .returnStmt, text := "return;" }] }] }]

/-- What control goes through in it, with no text, name or condition, and with no slot for the body
    of the function. -/
def Ast.uncommented : Ast where
  kind := .functionDef
  children := [
    { kind := .whileLoop
      slots := { body := some 0 }
      children := [
        { kind := .ifStmt, slots := { body := some 0 }, children := [{ kind := .returnStmt }] }] }]

theorem Flowchart.sameShape_of_skeleton_commented :
    Ast.commented.skeleton Ast.role = Ast.uncommented.skeleton Ast.role ∧
    ∃ chart chart', (ofAst 3 Ast.commented).outcome = .ok chart ∧
      (ofAst 3 Ast.uncommented).outcome = .ok chart' ∧ chart.SameShape chart' ∧
      chart.malformed.length = 0 ∧ chart'.malformed.length = 3 := by
  have h : Ast.commented.skeleton Ast.role = Ast.uncommented.skeleton Ast.role := by
    simp [Ast.skeleton_eq, Ast.parts, Ast.bodyOrChildren, Ast.commented, Ast.uncommented,
      Ast.child?, Slots.get, Ast.role]
  refine ⟨h, ?_⟩
  rcases sameShape_of_skeleton 3 h with ⟨depth, hdeep, -⟩ | ⟨chart, chart', hchart, hchart', hshape⟩
  · cases hdeep
  · refine ⟨chart, chart', hchart, hchart', hshape, ?_⟩
    cases hchart
    cases hchart'
    exact ⟨rfl, rfl⟩

end FlowSketch
